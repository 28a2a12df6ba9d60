/-
`collect_udp` over the arrays of its batch: the items say where the bytes of a
record and its peer are, and both arrays are cleared with the batch.
-/
import UltraNet.CollectSteps

namespace UltraNet

/-- The size of a `sockaddr_storage`. -/
def storageBytes : Nat := 128

/-- The address of a sender, where there is one. -/
structure PeerAddress where
  bytes : List UInt8
  known : bytes ≠ []
  fits : bytes.length ≤ storageBytes

structure PeeredItem where
  offset : Nat
  size : Nat
  peerIndex : Nat
  peerLen : Nat

/-- `record_batch`. -/
structure PeeredBatch where
  bytes : List UInt8
  peers : List (List UInt8)
  items : List PeeredItem
  payload : Nat
  inside : ∀ item ∈ items, item.offset + item.size ≤ bytes.length
  stored : ∀ item ∈ items, 0 < item.peerLen → item.peerIndex < peers.length
  total : payload = (items.map PeeredItem.size).sum

namespace PeeredBatch

def empty : PeeredBatch := ⟨[], [], [], 0, by simp, by simp, by simp⟩

def size (batch : PeeredBatch) : Nat := batch.items.length

def peer (batch : PeeredBatch) (item : PeeredItem) : Option (List UInt8) :=
  if 0 < item.peerLen then
    some (((batch.peers[item.peerIndex]?).getD []).take item.peerLen)
  else none

/-- The bytes that a span points to, and those of its peer. -/
def span (batch : PeeredBatch) (item : PeeredItem) : List UInt8 × Option (List UInt8) :=
  ((batch.bytes.drop item.offset).take item.size, batch.peer item)

/-- `at`. -/
def spanAt (batch : PeeredBatch) (index : Nat) : List UInt8 × Option (List UInt8) :=
  match batch.items[index]? with
  | none => ([], none)
  | some item => batch.span item

/-- What a sink reads that asks for every index. -/
def spans (batch : PeeredBatch) : DatagramBatch (List UInt8) :=
  (List.range batch.size).map batch.spanAt

/-- The bytes of an address in a `sockaddr_storage`. -/
def store (peer : List UInt8) : List UInt8 :=
  (peer ++ List.replicate storageBytes 0).take storageBytes

def add (batch : PeeredBatch) (data : List UInt8) (source : Option PeerAddress) :
    PeeredBatch where
  bytes := batch.bytes ++ data
  peers := batch.peers ++ (source.map fun peer => store peer.bytes).toList
  items := batch.items ++ [⟨batch.bytes.length, data.length, batch.peers.length,
    source.elim 0 fun peer => min peer.bytes.length storageBytes⟩]
  payload := batch.payload + data.length
  inside := by
    intro item hitem
    rw [List.length_append]
    rcases List.mem_append.mp hitem with hold | hnew
    · have := batch.inside item hold
      omega
    · obtain rfl := List.mem_singleton.mp hnew
      exact Nat.le_refl _
  stored := by
    intro item hitem hpeer
    rw [List.length_append]
    rcases List.mem_append.mp hitem with hold | hnew
    · have := batch.stored item hold hpeer
      omega
    · obtain rfl := List.mem_singleton.mp hnew
      cases source with
      | none => exact absurd hpeer (Nat.lt_irrefl 0)
      | some peer => simp
  total := by simp [batch.total]

theorem spans_eq (batch : PeeredBatch) : batch.spans = batch.items.map batch.span := by
  apply List.ext_getElem
  · simp [spans, size]
  · intro index hleft hright
    have hindex : index < batch.items.length := by simpa using hright
    simp [spans, spanAt, List.getElem?_eq_getElem hindex]

/-- The address comes back as it was stored. -/
theorem take_store (peer : PeerAddress) :
    (store peer.bytes).take (min peer.bytes.length storageBytes) = peer.bytes := by
  have hfits := peer.fits
  rw [Nat.min_eq_left hfits, store, List.take_take, Nat.min_eq_left hfits]
  exact List.take_left

/-- The new item reads what was added, the others what they read before. -/
theorem spans_add (batch : PeeredBatch) (data : List UInt8)
    (source : Option PeerAddress) :
    (batch.add data source).spans =
      batch.spans ++ [(data, source.map PeerAddress.bytes)] := by
  rw [spans_eq, spans_eq]
  show List.map _ (batch.items ++ [_]) = _
  rw [List.map_append]
  congr 1
  · apply List.map_congr_left
    intro item hitem
    have hinside := batch.inside item hitem
    have hstored := batch.stored item hitem
    apply Prod.ext
    · show ((batch.bytes ++ data).drop item.offset).take item.size = _
      rw [List.drop_append_of_le_length (by omega),
        List.take_append_of_le_length (by rw [List.length_drop]; omega)]
      rfl
    · show (if 0 < item.peerLen then _ else none) = batch.peer item
      unfold peer
      split
      · rename_i hpeer
        rw [add, List.getElem?_append_left (hstored hpeer)]
      · rfl
  · rw [List.map_singleton]
    congr 1
    apply Prod.ext
    · show ((batch.bytes ++ data).drop batch.bytes.length).take data.length = data
      rw [List.drop_left, List.take_length]
    · cases source with
      | none => rfl
      | some peer =>
          have hpos : 0 < min peer.bytes.length storageBytes :=
            Nat.lt_min.mpr ⟨List.length_pos_iff.mpr peer.known, by decide⟩
          show (if 0 < min peer.bytes.length storageBytes then _ else none) = _
          rw [if_pos hpos]
          simp [add, take_store]

/-- The records and the peers apart. -/
def toRecordBatch (batch : PeeredBatch) : RecordBatch where
  bytes := batch.bytes
  items := batch.items.map fun item => ⟨item.offset, item.size⟩
  payload := batch.payload
  inside := by
    intro item hitem
    obtain ⟨one, hone, rfl⟩ := List.mem_map.mp hitem
    exact batch.inside one hone
  total := by
    rw [batch.total, List.map_map]
    rfl

theorem spans_zip (batch : PeeredBatch) :
    batch.toRecordBatch.records.zip (batch.items.map batch.peer) = batch.spans := by
  rw [spans_eq, RecordBatch.records, toRecordBatch, List.map_map, List.zip_map']
  rfl

theorem toRecordBatch_add (batch : PeeredBatch) (data : List UInt8)
    (source : Option PeerAddress) :
    (batch.add data source).toRecordBatch = batch.toRecordBatch.add data := by
  simp [toRecordBatch, add, RecordBatch.add]

theorem size_toRecordBatch (batch : PeeredBatch) :
    batch.toRecordBatch.size = batch.size := by
  simp [RecordBatch.size, toRecordBatch, size]

theorem peers_add (batch : PeeredBatch) (data : List UInt8)
    (source : Option PeerAddress) :
    (batch.add data source).items.map (batch.add data source).peer =
      batch.items.map batch.peer ++ [source.map PeerAddress.bytes] := by
  have hspans := congrArg (List.map Prod.snd) (spans_add batch data source)
  rw [spans_eq, spans_eq, List.map_append, List.map_map, List.map_map] at hspans
  exact hspans

end PeeredBatch

/-- `collect_udp` between two receives. -/
structure PeeredCollector where
  batch : PeeredBatch
  batchOpen : Bool
  stats : CollectStats
  delivered : List (DatagramBatch (List UInt8))

/-- Whether to go on, given the batches that the sink has read. -/
abbrev DatagramSink := List (DatagramBatch (List UInt8)) → Bool

namespace PeeredCollector

def init : PeeredCollector := ⟨.empty, false, ⟨0, 0, 0, 0⟩, []⟩

def deliver (sink : DatagramSink) (c : PeeredCollector) : Bool × PeeredCollector :=
  if c.batch.size = 0 then (true, c)
  else
    let delivered := c.delivered ++ [c.batch.spans]
    (sink delivered, { c with
      stats := { c.stats with
        records := c.stats.records + c.batch.size
        recordBytes := c.stats.recordBytes + c.batch.payload
        batches := c.stats.batches + 1 }
      delivered := delivered
      batch := .empty
      batchOpen := false })

def deliverBefore (cfg : CollectConfig) (sink : DatagramSink) (c : PeeredCollector)
    (len : Nat) : Bool × PeeredCollector :=
  if 0 < c.batch.size ∧ (c.batch.size + 1 > cfg.batchRecords ∨
      c.batch.payload + len > cfg.batchBytes) then
    c.deliver sink
  else (true, c)

def addRecord (c : PeeredCollector) (bytes : List UInt8)
    (source : Option PeerAddress) : PeeredCollector :=
  { c with
    batchOpen := c.batchOpen || c.batch.size = 0
    batch := c.batch.add bytes source }

def deliverFull (cfg : CollectConfig) (sink : DatagramSink) (c : PeeredCollector) :
    Bool × PeeredCollector :=
  if c.batch.size ≥ cfg.batchRecords ∨ c.batch.payload ≥ cfg.batchBytes ∨
      cfg.batchDelay = 0 then
    c.deliver sink
  else (true, c)

def step (cfg : CollectConfig) (sink : DatagramSink) (c : PeeredCollector) :
    DatagramEvent PeerAddress → Option Nat × PeeredCollector
  | .late =>
      if c.batchOpen then
        match c.deliver sink with
        | (false, c) => (some 0, c)
        | (true, c) => (none, c)
      else (none, c)
  | .timedOut =>
      match c.deliver sink with
      | (false, c) => (some 0, c)
      | (true, c) => (none, c)
  | .failed code => (some code, (c.deliver sink).2)
  | .truncated =>
      (none, { c with
        stats := { c.stats with droppedOversize := c.stats.droppedOversize + 1 } })
  | .datagram bytes source =>
      match c.deliverBefore cfg sink bytes.length with
      | (false, c) => (some 0, c)
      | (true, c) =>
          match (c.addRecord bytes source).deliverFull cfg sink with
          | (false, c) => (some 0, c)
          | (true, c) => (none, c)

end PeeredCollector

/-- `collect_udp`: a step is one pass of its loop. -/
def collectUdp (cfg : CollectConfig) (sink : DatagramSink) :
    Machine (CollectPoint PeeredCollector) (DatagramEvent PeerAddress) where
  start := ⟨if configOk cfg then .reading else .returned eINVAL, .init⟩
  step p event :=
    match p.phase with
    | .reading => some (.ofResult (p.collector.step cfg sink event))
    | _ => none

/-- The address as bytes. -/
def DatagramEvent.bytewise : DatagramEvent PeerAddress → DatagramEvent (List UInt8)
  | .late => .late
  | .timedOut => .timedOut
  | .datagram bytes source => .datagram bytes (source.map PeerAddress.bytes)
  | .truncated => .truncated
  | .failed code => .failed code

namespace PeeredCollector

variable {cfg : CollectConfig} {sink : DatagramSink} {c : PeeredCollector}

def toDatagram (c : PeeredCollector) : DatagramCollector (List UInt8) :=
  ⟨c.batch.toRecordBatch, c.batch.items.map c.batch.peer, c.batchOpen, c.stats, c.delivered⟩

theorem toDatagram_deliver (sink : DatagramSink) (c : PeeredCollector) :
    c.toDatagram.deliver sink = ((c.deliver sink).1, (c.deliver sink).2.toDatagram) := by
  have hbatched : c.toDatagram.batched = c.batch.spans := c.batch.spans_zip
  have hsize : c.toDatagram.batch.size = c.batch.size := c.batch.size_toRecordBatch
  rw [DatagramCollector.deliver, deliver, hsize, hbatched]
  split
  · rfl
  · rfl

theorem toDatagram_deliverBefore (cfg : CollectConfig) (sink : DatagramSink)
    (c : PeeredCollector) (len : Nat) :
    c.toDatagram.deliverBefore cfg sink len =
      ((c.deliverBefore cfg sink len).1, (c.deliverBefore cfg sink len).2.toDatagram) := by
  have hsize : c.toDatagram.batch.size = c.batch.size := c.batch.size_toRecordBatch
  have hpayload : c.toDatagram.batch.payload = c.batch.payload := rfl
  rw [DatagramCollector.deliverBefore, deliverBefore, hsize, hpayload]
  split
  · exact toDatagram_deliver sink c
  · rfl

theorem toDatagram_deliverFull (cfg : CollectConfig) (sink : DatagramSink)
    (c : PeeredCollector) :
    c.toDatagram.deliverFull cfg sink =
      ((c.deliverFull cfg sink).1, (c.deliverFull cfg sink).2.toDatagram) := by
  have hsize : c.toDatagram.batch.size = c.batch.size := c.batch.size_toRecordBatch
  have hpayload : c.toDatagram.batch.payload = c.batch.payload := rfl
  rw [DatagramCollector.deliverFull, deliverFull, hsize, hpayload]
  split
  · exact toDatagram_deliver sink c
  · rfl

theorem toDatagram_addRecord (c : PeeredCollector) (bytes : List UInt8)
    (source : Option PeerAddress) :
    (c.addRecord bytes source).toDatagram =
      c.toDatagram.addRecord bytes (source.map PeerAddress.bytes) := by
  have hsize : c.toDatagram.batch.size = c.batch.size := c.batch.size_toRecordBatch
  rw [DatagramCollector.addRecord, hsize]
  simp only [toDatagram, addRecord, PeeredBatch.toRecordBatch_add, PeeredBatch.peers_add]

/-- A pass over the arrays is one over records with their peers. -/
theorem toDatagram_step (cfg : CollectConfig) (sink : DatagramSink)
    (c : PeeredCollector) (event : DatagramEvent PeerAddress) :
    c.toDatagram.step cfg sink event.bytewise =
      ((c.step cfg sink event).1, (c.step cfg sink event).2.toDatagram) := by
  cases event with
  | late =>
      have hopen : c.toDatagram.batchOpen = c.batchOpen := rfl
      simp only [DatagramEvent.bytewise, DatagramCollector.step, step, toDatagram_deliver,
        hopen]
      split
      · rcases c.deliver sink with ⟨ok, next⟩
        cases ok <;> rfl
      · rfl
  | timedOut =>
      simp only [DatagramEvent.bytewise, DatagramCollector.step, step, toDatagram_deliver]
      rcases c.deliver sink with ⟨ok, next⟩
      cases ok <;> rfl
  | failed code =>
      simp only [DatagramEvent.bytewise, DatagramCollector.step, step, toDatagram_deliver]
  | truncated => rfl
  | datagram bytes source =>
      simp only [DatagramEvent.bytewise, DatagramCollector.step, step,
        toDatagram_deliverBefore]
      rcases c.deliverBefore cfg sink bytes.length with ⟨ok, next⟩
      cases ok with
      | false => rfl
      | true =>
          simp only [← toDatagram_addRecord, toDatagram_deliverFull]
          rcases (next.addRecord bytes source).deliverFull cfg sink with ⟨ok, last⟩
          cases ok <;> rfl

end PeeredCollector

/-- Runs over the arrays are runs over records with their peers. -/
theorem runFrom_collectUdp (cfg : CollectConfig) (sink : DatagramSink)
    (word : List (DatagramEvent PeerAddress)) (p : CollectPoint PeeredCollector) :
    (udpMachine cfg sink).runFrom ⟨p.phase, p.collector.toDatagram⟩
        (word.map DatagramEvent.bytewise) =
      ((collectUdp cfg sink).runFrom p word).map fun last =>
        ⟨last.phase, last.collector.toDatagram⟩ := by
  induction word generalizing p with
  | nil => rfl
  | cons event rest ih =>
      obtain ⟨phase, c⟩ := p
      rw [List.map_cons, Machine.runFrom, Machine.runFrom]
      cases phase with
      | cutting => rfl
      | returned err => rfl
      | outside => rfl
      | reading =>
          simp only [udpMachine, collectUdp, PeeredCollector.toDatagram_step]
          rcases c.step cfg sink event with ⟨result, next⟩
          cases result with
          | none => exact ih ⟨.reading, next⟩
          | some err => exact ih ⟨.returned err, next⟩

end UltraNet
