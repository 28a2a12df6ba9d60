/-
`Channel<T, Capacity>`: a bounded ring with queues of parked readers and
writers.  A waiter that is woken holds a reservation until it is resumed, in
any order and at any later time.  Each locked section is one step.
-/
import Mathlib.Data.Int.ModEq

namespace UltraNet

variable {T : Type}

/-- A coroutine that was woken and not resumed yet; a writer keeps its value in
its awaitable. -/
inductive Woken (T : Type) where
  | reader
  | writer (value : T)
deriving DecidableEq

/-- The fields of the channel.  A parked reader is only counted. -/
structure Channel (T : Type) where
  buffer : Nat → T
  writePos : Nat
  readPos : Nat
  count : Nat
  writeReserved : Nat
  readReserved : Nat
  closed : Bool
  readers : Nat
  writers : List T

namespace Channel

def empty [Inhabited T] : Channel T :=
  ⟨fun _ => default, 0, 0, 0, 0, 0, false, 0, []⟩

section Operations

variable (capacity : Nat) (ch : Channel T)

def advance (pos : Nat) : Nat :=
  if pos + 1 ≥ capacity then 0 else pos + 1

def doWrite (value : T) : Channel T :=
  { ch with
    buffer := Function.update ch.buffer ch.writePos value
    writePos := advance capacity ch.writePos
    count := ch.count + 1 }

/-- The value at the read position, which `do_read_nolock` moves out. -/
def front : T := ch.buffer ch.readPos

def doRead : Channel T :=
  { ch with
    readPos := advance capacity ch.readPos
    count := ch.count - 1 }

def wakeOneReader : Channel T × List (Woken T) :=
  match ch.readers with
  | 0 => (ch, [])
  | readers + 1 =>
      ({ ch with readReserved := ch.readReserved + 1, readers := readers },
        [.reader])

def wakeOneWriter : Channel T × List (Woken T) :=
  match ch.writers with
  | [] => (ch, [])
  | value :: writers =>
      ({ ch with writeReserved := ch.writeReserved + 1, writers := writers },
        [.writer value])

/-- A value goes into the ring and one reader is woken. -/
def put (value : T) : Channel T × List (Woken T) :=
  (ch.doWrite capacity value).wakeOneReader

/-- A value comes out of the ring and one writer is woken. -/
def get : Channel T × List (Woken T) :=
  (ch.doRead capacity).wakeOneWriter

def hasRoom : Bool := ch.count + ch.writeReserved < capacity

/-- The fields after the release of one write reservation. -/
def unreserveWrite : Channel T :=
  { ch with writeReserved := ch.writeReserved - 1 }

def unreserveRead : Channel T :=
  { ch with readReserved := ch.readReserved - 1 }

def tryWrite (value : T) : Bool × Channel T × List (Woken T) :=
  if ch.closed || !ch.hasRoom capacity then (false, ch, [])
  else (true, ch.put capacity value)

def tryRead : Option T × Channel T × List (Woken T) :=
  if ch.count ≤ ch.readReserved then (none, ch, [])
  else (some ch.front, ch.get capacity)

/-- What the locked section of `await_ready` or `await_suspend` decides. -/
inductive Outcome (R : Type) where
  | ready (result : R)
  | blocked

/-- `WriteAwaitable::await_ready`, and all but the parking of `await_suspend`. -/
def writeReady (value : T) : Outcome Bool × Channel T × List (Woken T) :=
  if ch.closed then (.ready false, ch, [])
  else if ch.hasRoom capacity then (.ready true, ch.put capacity value)
  else (.blocked, ch, [])

def writeSuspend (value : T) : Outcome Bool × Channel T × List (Woken T) :=
  match ch.writeReady capacity value with
  | (.blocked, ch, woken) =>
      (.blocked, { ch with writers := ch.writers ++ [value] }, woken)
  | result => result

/-- `WriteAwaitable::await_resume` of a writer that was woken. -/
def writeResume (value : T) : Bool × Channel T × List (Woken T) :=
  if ch.closed then (false, ch.unreserveWrite, [])
  else (true, ch.unreserveWrite.put capacity value)

/-- `ReadAwaitable::await_ready`, and all but the parking of `await_suspend`. -/
def readReady : Outcome (Option T) × Channel T × List (Woken T) :=
  if ch.count > ch.readReserved then
    (.ready (some ch.front), ch.get capacity)
  else if ch.closed then (.ready none, ch, [])
  else (.blocked, ch, [])

def readSuspend : Outcome (Option T) × Channel T × List (Woken T) :=
  match ch.readReady capacity with
  | (.blocked, ch, woken) =>
      (.blocked, { ch with readers := ch.readers + 1 }, woken)
  | result => result

/-- `ReadAwaitable::await_resume` of a reader that was woken. -/
def readResume : Option T × Channel T × List (Woken T) :=
  if ch.count > 0 then (some ch.front, ch.unreserveRead.get capacity)
  else if ch.closed then (none, ch.unreserveRead, [])
  else (none, ch, [])

def close : Channel T × List (Woken T) :=
  ({ ch with
      closed := true
      readReserved := ch.readReserved + ch.readers
      writeReserved := ch.writeReserved + ch.writers.length
      readers := 0
      writers := [] },
    List.replicate ch.readers .reader ++ ch.writers.map .writer)

end Operations

/-- The fields that say what is in the ring. -/
def ring (ch : Channel T) : (Nat → T) × Nat × Nat × Nat :=
  (ch.buffer, ch.writePos, ch.readPos, ch.count)

/-- What is in the ring, oldest first. -/
def buffered (capacity : Nat) (ch : Channel T) : List T :=
  (List.range ch.count).map fun k => ch.buffer ((ch.readPos + k) % capacity)

/-- While the channel is open the reservations fit, and a waiter is parked only
if everything is spoken for. -/
structure Spoken (capacity : Nat) (ch : Channel T) : Prop where
  room : ch.count + ch.writeReserved ≤ capacity
  data : ch.readReserved ≤ ch.count
  reader : ch.readers ≠ 0 → ch.count = ch.readReserved
  writer : ch.writers ≠ [] → ch.count + ch.writeReserved = capacity

structure Ok (capacity : Nat) (ch : Channel T) : Prop where
  pos : ch.readPos < capacity
  next : ch.writePos = (ch.readPos + ch.count) % capacity
  size : ch.count ≤ capacity
  spoken : ch.closed = false → ch.Spoken capacity
  parted : ch.closed = true → ch.readers = 0 ∧ ch.writers = []

section Ring

variable {capacity : Nat} {ch ch' : Channel T}

theorem ring_eq (hring : ch'.ring = ch.ring) :
    ch'.buffer = ch.buffer ∧ ch'.writePos = ch.writePos ∧
      ch'.readPos = ch.readPos ∧ ch'.count = ch.count := by
  simpa only [ring, Prod.mk.injEq] using hring

theorem buffered_ring (hring : ch'.ring = ch.ring) :
    ch'.buffered capacity = ch.buffered capacity := by
  obtain ⟨hbuffer, -, hread, hcount⟩ := ring_eq hring
  rw [buffered, buffered, hbuffer, hread, hcount]

theorem front_ring (hring : ch'.ring = ch.ring) : ch'.front = ch.front := by
  obtain ⟨hbuffer, -, hread, -⟩ := ring_eq hring
  rw [front, front, hbuffer, hread]

theorem advance_mod {pos : Nat} (hpos : pos < capacity) :
    advance capacity pos = (pos + 1) % capacity := by
  unfold advance
  split
  · rw [show pos + 1 = capacity by omega, Nat.mod_self]
  · rw [Nat.mod_eq_of_lt (by omega)]

/-- Positions that are less than a lap apart differ. -/
theorem position_ne {pos k n : Nat} (hk : k < n) (hn : n < capacity) :
    (pos + k) % capacity ≠ (pos + n) % capacity := by
  intro heq
  have hmod : k ≡ n [MOD capacity] := Nat.ModEq.add_left_cancel' pos heq
  exact hk.ne (hmod.eq_of_lt_of_lt (hk.trans hn) hn)

theorem buffered_doWrite (value : T)
    (hnext : ch.writePos = (ch.readPos + ch.count) % capacity)
    (hcount : ch.count < capacity) :
    (ch.doWrite capacity value).buffered capacity =
      ch.buffered capacity ++ [value] := by
  simp only [buffered, doWrite, List.range_succ, List.map_append, List.map_cons,
    List.map_nil]
  rw [hnext, Function.update_self]
  congr 1
  apply List.map_congr_left
  intro k hk
  rw [Function.update_of_ne (position_ne (List.mem_range.mp hk) hcount)]

theorem buffered_doRead (hpos : ch.readPos < capacity) (hcount : 0 < ch.count) :
    ch.buffered capacity = ch.front :: (ch.doRead capacity).buffered capacity := by
  obtain ⟨n, hn⟩ := Nat.exists_eq_succ_of_ne_zero hcount.ne'
  simp only [buffered, doRead, front, hn, List.range_succ_eq_map, List.map_cons,
    List.map_map, advance_mod hpos, Nat.add_zero, Nat.mod_eq_of_lt hpos]
  rw [List.cons.injEq]
  refine ⟨rfl, ?_⟩
  apply List.map_congr_left
  intro k _
  simp only [Function.comp]
  rw [Nat.mod_add_mod]
  congr 2
  omega

end Ring

section Moves

variable {capacity : Nat} {ch : Channel T}

/-- A write next to a free slot that nobody else has reserved. -/
theorem ok_put (value : T) (hpos : ch.readPos < capacity)
    (hnext : ch.writePos = (ch.readPos + ch.count) % capacity)
    (hopen : ch.closed = false)
    (hroom : ch.count + 1 + ch.writeReserved ≤ capacity)
    (hdata : ch.readReserved ≤ ch.count)
    (hreader : ch.readers ≠ 0 → ch.count = ch.readReserved)
    (hwriter : ch.writers ≠ [] → ch.count + 1 + ch.writeReserved = capacity) :
    (ch.put capacity value).1.Ok capacity := by
  have hadvance : advance capacity ch.writePos =
      (ch.readPos + (ch.count + 1)) % capacity := by
    rw [hnext, advance_mod (Nat.mod_lt _ (by omega)), Nat.mod_add_mod]
    rfl
  simp only [put, wakeOneReader]
  split
  · rename_i hreaders
    refine ⟨hpos, hadvance, ?_, fun _ => ⟨hroom, ?_, ?_, hwriter⟩, ?_⟩
    · simp only [doWrite]
      omega
    · simp only [doWrite]
      omega
    · exact fun hne => absurd hreaders hne
    · intro hclosed
      exact absurd (hopen.symm.trans hclosed) (by decide)
  · rename_i readers hreaders
    have hfull := hreader (by
      simp only [doWrite] at hreaders
      omega)
    refine ⟨hpos, hadvance, ?_, fun _ => ⟨hroom, ?_, ?_, hwriter⟩, ?_⟩
    · simp only [doWrite]
      omega
    · simp only [doWrite]
      omega
    · intro _
      simp only [doWrite]
      omega
    · intro hclosed
      exact absurd (hopen.symm.trans hclosed) (by decide)

/-- A read of a value that nobody else has reserved. -/
theorem ok_get (hpos : ch.readPos < capacity)
    (hnext : ch.writePos = (ch.readPos + ch.count) % capacity)
    (hsize : ch.count ≤ capacity) (hcount : 0 < ch.count)
    (hopen : ch.closed = false → ch.count + ch.writeReserved ≤ capacity ∧
      ch.readReserved + 1 ≤ ch.count ∧
      (ch.readers ≠ 0 → ch.count = ch.readReserved + 1) ∧
      (ch.writers ≠ [] → ch.count + ch.writeReserved = capacity))
    (hparted : ch.closed = true → ch.readers = 0 ∧ ch.writers = []) :
    (ch.get capacity).1.Ok capacity := by
  have hadvance : ch.writePos =
      (advance capacity ch.readPos + (ch.count - 1)) % capacity := by
    rw [hnext, advance_mod hpos, Nat.mod_add_mod]
    congr 1
    omega
  have hlt : advance capacity ch.readPos < capacity := by
    rw [advance_mod hpos]
    exact Nat.mod_lt _ (by omega)
  simp only [get, wakeOneWriter]
  split
  · rename_i hwriters
    refine ⟨hlt, hadvance, ?_, ?_, hparted⟩
    · simp only [doRead]
      omega
    · intro hclosed
      obtain ⟨hroom, hdata, hreader, -⟩ := hopen hclosed
      refine ⟨?_, ?_, ?_, fun hne => absurd hwriters hne⟩
      · simp only [doRead]
        omega
      · simp only [doRead]
        omega
      · intro hne
        have := hreader hne
        simp only [doRead]
        omega
  · rename_i value writers hwriters
    have hparked : ch.writers ≠ [] := by
      simp only [doRead] at hwriters
      simp [hwriters]
    refine ⟨hlt, hadvance, ?_, ?_, ?_⟩
    · simp only [doRead]
      omega
    · intro hclosed
      obtain ⟨hroom, hdata, hreader, hwriter⟩ := hopen hclosed
      have hfull := hwriter hparked
      refine ⟨?_, ?_, ?_, ?_⟩
      · simp only [doRead]
        omega
      · simp only [doRead]
        omega
      · intro hne
        have := hreader hne
        simp only [doRead]
        omega
      · intro _
        simp only [doRead]
        omega
    · intro hclosed
      exact absurd (hparted hclosed).2 hparked

namespace Ok

theorem put_free (hok : ch.Ok capacity) (hopen : ch.closed = false)
    (hroom : ch.hasRoom capacity = true) (value : T) :
    (ch.put capacity value).1.Ok capacity := by
  obtain ⟨hroom', hdata, hreader, hwriter⟩ := hok.spoken hopen
  simp only [hasRoom, decide_eq_true_eq] at hroom
  refine ok_put value hok.pos hok.next hopen (by omega) hdata hreader ?_
  intro hne
  have := hwriter hne
  omega

theorem put_reserved (hok : ch.Ok capacity) (hopen : ch.closed = false)
    (hreserved : 0 < ch.writeReserved) (value : T) :
    (ch.unreserveWrite.put capacity value).1.Ok capacity := by
  obtain ⟨hroom, hdata, hreader, hwriter⟩ := hok.spoken hopen
  refine ok_put value hok.pos hok.next hopen ?_ hdata hreader ?_
  · simp only [unreserveWrite]
    omega
  · intro hne
    have := hwriter hne
    simp only [unreserveWrite]
    omega

theorem get_free (hok : ch.Ok capacity) (hcount : ch.readReserved < ch.count) :
    (ch.get capacity).1.Ok capacity := by
  refine ok_get hok.pos hok.next hok.size (by omega) ?_ hok.parted
  intro hopen
  obtain ⟨hroom, hdata, hreader, hwriter⟩ := hok.spoken hopen
  refine ⟨hroom, hcount, ?_, hwriter⟩
  intro hne
  have := hreader hne
  omega

theorem get_reserved (hok : ch.Ok capacity) (hcount : 0 < ch.count)
    (hreserved : 0 < ch.readReserved) :
    (ch.unreserveRead.get capacity).1.Ok capacity := by
  refine ok_get hok.pos hok.next hok.size hcount ?_ hok.parted
  intro hopen
  obtain ⟨hroom, hdata, hreader, hwriter⟩ := hok.spoken hopen
  refine ⟨hroom, ?_, ?_, hwriter⟩
  · simp only [unreserveRead]
    omega
  · intro hne
    have := hreader hne
    simp only [unreserveRead]
    omega

theorem unreserveWrite (hok : ch.Ok capacity) (hclosed : ch.closed = true) :
    ch.unreserveWrite.Ok capacity :=
  ⟨hok.pos, hok.next, hok.size, fun hopen => by
    simp [Channel.unreserveWrite, hclosed] at hopen, hok.parted⟩

theorem unreserveRead (hok : ch.Ok capacity) (hclosed : ch.closed = true) :
    ch.unreserveRead.Ok capacity :=
  ⟨hok.pos, hok.next, hok.size, fun hopen => by
    simp [Channel.unreserveRead, hclosed] at hopen, hok.parted⟩

theorem parkWriter (hok : ch.Ok capacity) (hopen : ch.closed = false)
    (hfull : ¬ ch.hasRoom capacity = true) (value : T) :
    Ok capacity { ch with writers := ch.writers ++ [value] } := by
  obtain ⟨hroom, hdata, hreader, -⟩ := hok.spoken hopen
  simp only [hasRoom, decide_eq_true_eq] at hfull
  have heq : ch.count + ch.writeReserved = capacity := by omega
  refine ⟨hok.pos, hok.next, hok.size,
    fun _ => ⟨hroom, hdata, hreader, fun _ => heq⟩, ?_⟩
  intro hclosed
  exact absurd (hopen.symm.trans hclosed) (by decide)

theorem parkReader (hok : ch.Ok capacity) (hopen : ch.closed = false)
    (hempty : ¬ ch.count > ch.readReserved) :
    Ok capacity { ch with readers := ch.readers + 1 } := by
  obtain ⟨hroom, hdata, -, hwriter⟩ := hok.spoken hopen
  have heq : ch.count = ch.readReserved := by omega
  refine ⟨hok.pos, hok.next, hok.size,
    fun _ => ⟨hroom, hdata, fun _ => heq, hwriter⟩, ?_⟩
  intro hclosed
  exact absurd (hopen.symm.trans hclosed) (by decide)

theorem close (hok : ch.Ok capacity) : ch.close.1.Ok capacity :=
  ⟨hok.pos, hok.next, hok.size, nofun, fun _ => ⟨rfl, rfl⟩⟩

end Ok

end Moves

theorem put_cases (capacity : Nat) (ch : Channel T) (value : T) :
    ∃ n, (ch.put capacity value).2 = List.replicate n .reader ∧
      (ch.put capacity value).1.readReserved = ch.readReserved + n ∧
      (ch.put capacity value).1.writeReserved = ch.writeReserved ∧
      (ch.put capacity value).1.writers = ch.writers ∧
      (ch.put capacity value).1.closed = ch.closed := by
  simp only [put, wakeOneReader]
  split
  · exact ⟨0, rfl, rfl, rfl, rfl, rfl⟩
  · exact ⟨1, rfl, rfl, rfl, rfl, rfl⟩

theorem get_cases (capacity : Nat) (ch : Channel T) :
    ∃ values, (ch.get capacity).2 = values.map .writer ∧
      ch.writers = values ++ (ch.get capacity).1.writers ∧
      (ch.get capacity).1.writeReserved = ch.writeReserved + values.length ∧
      (ch.get capacity).1.readReserved = ch.readReserved ∧
      (ch.get capacity).1.closed = ch.closed := by
  simp only [get, wakeOneWriter]
  split
  · rename_i hwriters
    exact ⟨[], rfl, rfl, rfl, rfl, rfl⟩
  · rename_i value writers hwriters
    exact ⟨[value], rfl, hwriters, rfl, rfl, rfl⟩

/-- The value comes last in the ring, whoever is woken. -/
theorem put_buffered {capacity : Nat} {ch : Channel T} (value : T)
    (hnext : ch.writePos = (ch.readPos + ch.count) % capacity)
    (hcount : ch.count < capacity) :
    (ch.put capacity value).1.buffered capacity = ch.buffered capacity ++ [value] := by
  rw [← buffered_doWrite value hnext hcount]
  simp only [put, wakeOneReader]
  split <;> rfl

/-- What is read was the first in the ring. -/
theorem get_buffered {capacity : Nat} {ch : Channel T} (hpos : ch.readPos < capacity)
    (hcount : 0 < ch.count) :
    ch.buffered capacity = ch.front :: (ch.get capacity).1.buffered capacity := by
  rw [buffered_doRead hpos hcount]
  simp only [get, wakeOneWriter]
  split <;> rfl

theorem put_count (capacity : Nat) (ch : Channel T) (value : T) :
    (ch.put capacity value).1.count = ch.count + 1 ∧
      (ch.put capacity value).1.readers + (ch.put capacity value).2.length =
        ch.readers := by
  simp only [put, wakeOneReader]
  split
  · rename_i hreaders
    exact ⟨rfl, rfl⟩
  · rename_i readers hreaders
    exact ⟨rfl, hreaders.symm⟩

theorem get_count (capacity : Nat) (ch : Channel T) :
    (ch.get capacity).1.count = ch.count - 1 ∧
      (ch.get capacity).1.readers = ch.readers := by
  simp only [get, wakeOneWriter]
  split <;> exact ⟨rfl, rfl⟩

end Channel

end UltraNet
